import Rollcall.Proofs.Drained
import Rollcall.Proofs.LateWork
import Rollcall.Proofs.Standstill

/-!
# Reading on

What a task has gathered that reads a stream to its end, since some moment, is what has been read of
the channel since then. When the request is complete the task ends, with all that was placed
(`Progress`). A segment of such a task changes nothing else but how much of the channel is left to
read (`gatherer_step`).
-/

namespace Rollcall

theorem Book.Cancels.cancelled_eq {b b' : Book} {id : RequestId} {r r' : Request}
    (h : b.Cancels [] b') (hq : b.requests[id]? = some r) (hq' : b'.requests[id]? = some r') :
    r'.cancelled = r.cancelled := by
  have htally := h id
  rw [tally_eq hq, tally_eq hq'] at htally
  cases hc : r.cancelled with
  | false =>
    cases hc' : r'.cancelled with
    | false => rfl
    | true => simp [hc, hc'] at htally
  | true =>
    cases hc' : r'.cancelled with
    | false => simp [hc, hc'] at htally
    | true => rfl

theorem Book.cancels_of_drained {b b' : Book} (h : b'.drained = b.drained) : b.Cancels [] b' := by
  refine .none fun id => ?_
  have hid : b'.drained.view (·.cancelled) id = b.drained.view (·.cancelled) id := by rw [h]
  simp only [view, requests_drained, Option.map_map] at hid
  exact hid

namespace Hub

inductive Progress (h : Hub) (t : TaskId) (x : Gatherer) (id : RequestId) (got read : List Member) :
    Prop
  | reads {ms : List Member} {r : Request} (ht : h.task? t = some (x.task id (ms ++ got)))
      (hq : h.book.requests[id]? = some r) (hc : r.cancelled = false)
      (hr : r.channel.read = ms ++ read)
  | ended {ms : List Member} {r : Request} (ht : h.task? t = none)
      (hq : h.book.requests[id]? = some r) (hc : r.complete = true)
      (hp : r.channel.placed = (ms ++ read).reverse)
      (ho : (t, x.finish (ms ++ got).reverse) ∈ h.finished)

/-- Whether `g` is `h` in all that tasks take notice of, but for the requests and loop `index`, if
there is one. -/
structure Around (index : Option Nat) (h g : Hub) : Prop where
  now : g.now = h.now
  tokens : g.cancelledTokens = h.cancelledTokens
  caching : g.caching = h.caching
  loops : ∀ i, some i ≠ index → g.loops[i]? = h.loops[i]?

theorem Around.trans {index : Option Nat} {h g k : Hub} (h₁ : Around index h g)
    (h₂ : Around index g k) : Around index h k where
  now := h₂.now.trans h₁.now
  tokens := h₂.tokens.trans h₁.tokens
  caching := h₂.caching.trans h₁.caching
  loops i hi := (h₂.loops i hi).trans (h₁.loops i hi)

variable {h g : Hub} {t : TaskId} {x : Gatherer} {id : RequestId} {got read : List Member}

/-- The others do not disturb a reader, as long as its request is not cancelled. -/
theorem Progress.of_others (hn : h.IsNew) {past : List Action} {t' : TaskId}
    (hp : (h.after past).Progress t x id got read) (hne : t' ≠ t)
    (hlive : (h.after past).book.Cancels [] (h.after (.segment t' :: past)).book) :
    (h.after (.segment t' :: past)).Progress t x id got read := by
  have hsame : (h.after (.segment t' :: past)).task? t = (h.after past).task? t :=
    task?_segment (Ne.symm hne)
  cases hp with
  | ended ht hq hc hp ho =>
    obtain ⟨r', hq', hc', -, -, hplaced⟩ := complete_after hn hq hc [.segment t']
    exact .ended (hsame.trans ht) hq' hc' (hplaced.trans hp) (mem_finished_perform ho _)
  | @reads ms r ht hq hc hr =>
    have hreach := Reached.after hn past
    have hreach' := Reached.after hn (.segment t' :: past)
    obtain ⟨r', hq', -⟩ := hreach.later_changes (perform_changes _ (.segment t')) id r hq
    have hq' : (h.after (.segment t' :: past)).book.requests[id]? = some r' := hq'
    have hstream : (h.after past).scene.stream? t = some id :=
      (Scene.stream?_of_task ht).trans (x.stream?_task id _)
    -- What has been read of a channel is what was given out, and that takes the reader's segments.
    have hread : r'.channel.read = r.channel.read := by
      rw [hreach.read_eq hq, hreach'.read_eq hq', journal, yielded_append,
        yielded_of_others hn hstream hne, List.append_nil]
    exact .reads (hsame.trans ht) hq' ((hlive.cancelled_eq hq hq').trans hc) (hread.trans hr)

theorem gatherer_step (hx : h.tokenCancelled x.token = false) (hd : h.Undue x.deadline)
    (hb : h.book.Sound) (hp : h.Progress t x id got read) (ha : h.advance t = some g) :
    g.Progress t x id got read ∧ g.intake.drained = h.intake.drained ∧ g.loops = h.loops ∧
      ∀ index, Around index h g := by
  cases hp with
  | ended ht => cases (advance_of_gone ht).symm.trans ha
  | @reads ms r ht hq hc hr =>
    cases hu : r.channel.unread with
    | cons m rest =>
      have hm := advance_gatherer_member (t := t) (ms ++ got) hx hq hc hu
      cases (advance_of_moved ht hm).symm.trans ha
      have hself := (Book.replaces_modify hq Request.afterReading).self
      have hdrained : (h.book.modify id .afterReading).drained = h.book.drained :=
        Book.drained_modify_same Request.drained_afterReading
      have hlive : r.afterReading.cancelled = false := by simp [Request.afterReading, hc]
      have hmore : r.afterReading.channel.read = m :: ms ++ read := by
        simp [Request.afterReading, hc, Channel.take, hu, hr]
      refine ⟨.reads ?_ hself hlive hmore, ?_, rfl, fun _ => ⟨rfl, rfl, rfl, fun _ _ => rfl⟩⟩
      · exact task?_setTask_self ht rfl _
      · exact congrArg (fun b => (⟨b, h.stats⟩ : Intake)) hdrained
    | nil =>
      -- With nothing to read it moves only if no more will come.
      by_cases hw : r.Waiting
      · have hm := advance_gatherer_pending (t := t) (ms ++ got) hx hd hb hq hw hu
        cases (advance_of_blocked ht hm).symm.trans ha
      · have hcomplete := Request.complete_of_not_waiting hc hw
        have hclosed := (hb.request id r hq).sender_of_complete hcomplete
        have hm := advance_gatherer_ended (t := t) (ms ++ got) hx hq hc hu hclosed
        cases (advance_of_done ht hm).symm.trans ha
        have hdrop : h.book.dropStream id = h.book.modify id .dropReceiver := by
          rw [Book.dropStream, hb.cancel_of_ended hq hw]
        have hself := (Book.replaces_modify hq Request.dropReceiver).self
        have hdrained : (h.book.modify id .dropReceiver).drained = h.book.drained :=
          Book.drained_modify_same Request.drained_dropReceiver
        rw [← hdrop] at hself hdrained
        have hplaced : r.dropReceiver.channel.placed = (ms ++ read).reverse := by
          show r.channel.placed = (ms ++ read).reverse
          simp [Channel.placed, hu, hr]
        refine ⟨.ended ?_ hself hcomplete hplaced ?_, ?_, rfl,
          fun _ => ⟨rfl, rfl, rfl, fun _ _ => rfl⟩⟩
        · exact task?_setTask_self ht rfl _
        · exact Array.mem_push_self
        · exact congrArg (fun b => (⟨b, h.stats⟩ : Intake)) hdrained

end Hub
end Rollcall
