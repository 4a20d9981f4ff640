import Rollcall.Proofs.Finality
import Rollcall.Proofs.Ledger
import Rollcall.Proofs.Sole
import Rollcall.Proofs.Stall

/-!
# Standstill

In a hub in which every registered request is read to its end, and in which no task can move, nothing
is being handed over: the tasks are readers without members to read, loops without events, and calls
held by their shards (`reads_or_rests`). A task of the latter two kinds waits for nothing that the
requests could give (`Rests.blocked`).
-/

namespace Rollcall

def Hub.Undue (h : Hub) (deadline : Option Deadline) : Prop :=
  ∀ d ∈ deadline, h.now.nanos < d.due.nanos

def Gatherer.deadline : Gatherer → Option Deadline
  | call c => c.deadline
  | reader => none

namespace Hub

variable {h : Hub} {t : TaskId} {x : Gatherer} {id : RequestId} {got : List Member} {r : Request}

theorem expire_blocked {c : Call} : h.expire c = .blocked ↔ h.Undue c.deadline := by
  unfold expire Undue
  cases c.deadline with
  | none => simp
  | some d =>
    simp only [Option.mem_def, Option.some.injEq, forall_eq']
    split
    · simp [*]
    · simp [*]

/-! ## Readers without members to read -/

theorem advance_gatherer_pending (got : List Member) (hx : h.tokenCancelled x.token = false)
    (hd : h.Undue x.deadline) (hb : h.book.Sound) (hq : h.book.requests[id]? = some r)
    (hw : r.Waiting) (hu : r.channel.unread = []) :
    h.advanceTask t (x.task id got) = .blocked := by
  have hsound := hb.request id r hq
  have hrecv : h.book.recv id = (.pending, h.book.modify id .afterReading) := by
    simp [Book.recv_eq hq, Request.reading, hw.2, hu, hsound.sender hw, Channel.isListening,
      hsound.receiver hw]
  cases x with
  | call c =>
    have htoken : h.tokenCancelled (watched c.goal) = false := hx
    have hexpire : h.expire { c with stage := .reading id got } = .blocked := expire_blocked.mpr hd
    simp [Gatherer.task, advanceTask, advanceCall, advanceReading, htoken, hrecv, hexpire]
  | reader => simp [Gatherer.task, advanceTask, advanceReader, hrecv]

theorem undue_of_blocked (hm : h.advanceTask t (x.task id got) = .blocked) :
    h.tokenCancelled x.token = false ∧ h.Undue x.deadline := by
  cases x with
  | reader => exact ⟨rfl, nofun⟩
  | call c =>
    have hcall := advanceCall_of_blocked hm
    simp only [advanceCall, advanceReading] at hcall
    split at hcall
    · rename_i hreads
      have hundue : h.Undue c.deadline :=
        expire_blocked (c := { c with stage := .reading id got }).mp hcall
      refine ⟨?_, hundue⟩
      show h.tokenCancelled (watched c.goal) = false
      by_contra hx
      rw [Bool.not_eq_false] at hx
      rw [if_pos hx] at hreads
      cases hreads
    · rename_i hreads
      exact absurd hcall hreads

structure Pending (h : Hub) (x : Gatherer) (id : RequestId) (r : Request) : Prop where
  token : h.tokenCancelled x.token = false
  undue : h.Undue x.deadline
  request : h.book.requests[id]? = some r
  waiting : r.Waiting
  unread : r.channel.unread = []

theorem reads_gatherer (x : Gatherer) (id : RequestId) (got : List Member) :
    (x.task id got).Reads id := by
  cases x with
  | call c => exact .call rfl
  | reader => exact .reader .all got

theorem pending_of_quiet (hn : h.IsNew) {past : List Action} (hq : (h.after past).Quiet)
    (ht : (h.after past).task? t = some (x.task id got)) : ∃ r, (h.after past).Pending x id r := by
  obtain ⟨r, hr, hw, hu⟩ := waiting_of_reads hn hq ht (reads_gatherer x id got)
  obtain ⟨htoken, hundue⟩ := undue_of_blocked (blocked_of_quiet hq ht)
  exact ⟨r, htoken, hundue, hr, hw, hu⟩

theorem Pending.blocked (hp : h.Pending x id r) (hb : h.book.Sound) :
    h.advanceTask t (x.task id got) = .blocked :=
  advance_gatherer_pending got hp.token hp.undue hb hp.request hp.waiting hp.unread

/-! ## Tasks that wait for other things -/

inductive Rests (h : Hub) : Task → Prop
  | idles {index : Nat} {l : EventLoop} (hl : h.loops[index]? = some l) (hf : l.feeding = true)
      (hs : l.stopping = false) (hq : l.queue = []) : Rests h (.loop index none)
  | held {c : Call} {id : RequestId} (hs : c.stage = .sending id none)
      (hd : h.Undue c.deadline) : Rests h (.call c)

theorem Rests.blocked {task : Task} (hr : h.Rests task) : h.advanceTask t task = .blocked := by
  cases hr with
  | idles hl hf hs hq => simp [advanceTask, advanceLoop, hl, hf, hs, hq]
  | held hs hd =>
    have hexpire := expire_blocked.mpr hd
    simp [advanceTask, advanceCall, hs, hexpire]

theorem rests_of_idle {index : Nat} {l : EventLoop} (hl : h.loops[index]? = some l)
    (hq : l.queue = []) (hm : h.advanceTask t (.loop index none) = .blocked) :
    l.feeding = true ∧ l.stopping = false := by
  simp only [advanceTask, advanceLoop, hl, hq] at hm
  split at hm
  · cases hm
  · rename_i hs
    split at hm
    · rename_i hf
      exact ⟨hf, by simpa using hs⟩
    · cases hm

def AllRead (h : Hub) : Prop :=
  ∀ n id, h.book.registry.get? n = some id →
    ∃ t x got, h.task? t = some (Gatherer.task x id got)

section

variable (hn : h.IsNew) {past : List Action} (hq : (h.after past).Quiet)
  (hread : (h.after past).AllRead)
include hn hq hread

theorem gatherer_of_reads {task : Task} (ht : (h.after past).task? t = some task)
    (hr : task.Reads id) : ∃ x got, task = Gatherer.task x id got := by
  have hreach := Reached.after hn past
  obtain ⟨r, hreq, hw, -⟩ := waiting_of_reads hn hq ht hr
  obtain ⟨t', x, got, ht'⟩ := hread r.nonce id ((hreach.sound.get?_nonce hreq).mpr hw)
  have hholds : (h.after past).scene.Holds (some t) id := (Scene.stream?_of_task ht).trans hr.stream?
  have hholds' : (h.after past).scene.Holds (some t') id :=
    (Scene.stream?_of_task ht').trans (x.stream?_task id got)
  cases hreach.owned.sole hholds hholds'
  exact ⟨x, got, Option.some.inj (ht.symm.trans ht')⟩

theorem no_delivery {d : Delivery} : (h.after past).delivery? t ≠ some d := by
  intro hd
  have hreach := Reached.after hn past
  obtain ⟨r, hheld⟩ := heldUp_of_quiet hn hq hd
  obtain ⟨t', x, got, ht'⟩ := hread r.nonce d.request hheld.registered
  obtain ⟨r', hr', -, hu⟩ := waiting_of_reads hn hq ht' (reads_gatherer x d.request got)
  cases hheld.request.symm.trans hr'
  -- The channel that holds the chunk up is full, and the one its reader waits at is empty.
  have hfull := hheld.full
  rw [hu, h.limits_after past] at hfull
  exact absurd hn.capacity_pos (Nat.not_lt_of_le (Nat.le_of_eq hfull.symm))

theorem reads_or_rests {task : Task} (ht : (h.after past).task? t = some task) :
    (∃ x id got, task = Gatherer.task x id got) ∨ (h.after past).Rests task := by
  have hblocked := blocked_of_quiet hq ht
  have reads {id : RequestId} (hr : task.Reads id) :
      (∃ x id got, task = Gatherer.task x id got) ∨ (h.after past).Rests task := by
    obtain ⟨x, got, he⟩ := gatherer_of_reads hn hq hread ht hr
    exact .inl ⟨x, id, got, he⟩
  have attends (ha : task.Attends) : (h.after past).Rests task := by
    rcases attends_of_quiet hn hq ht ha with ⟨d, hd⟩ | ⟨index, l, rfl, hl, hqueue⟩
    · exact absurd ((delivery?_of_task ht).trans hd) (no_delivery hn hq hread)
    · obtain ⟨hf, hs⟩ := rests_of_idle hl hqueue hblocked
      exact .idles hl hf hs hqueue
  cases task with
  | call c =>
    cases hs : c.stage with
    | starting =>
      have hcall := advanceCall_of_blocked hblocked
      simp only [advanceCall, hs] at hcall
      split at hcall
      · rename_i hstart
        exact absurd hstart advanceStart_ne_blocked
      · rename_i hstart
        exact absurd hcall hstart
    | sending id result =>
      cases result with
      | none =>
        have hcall := advanceCall_of_blocked hblocked
        simp only [advanceCall, hs] at hcall
        exact .inr (.held hs (expire_blocked.mp hcall))
      | some result => exact reads (.sent hs)
    | reading id got => exact reads (.call hs)
  | reader id goal got => exact reads (.reader goal got)
  | handler e => exact .inr (attends trivial)
  | delivering d => exact .inr (attends trivial)
  | loop index current => exact .inr (attends trivial)

end

end Hub
end Rollcall
