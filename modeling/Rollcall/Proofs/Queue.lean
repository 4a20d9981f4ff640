import Rollcall.Proofs.Dealing
import Rollcall.Proofs.Sole

/-!
# Queues of loops

A queue grows by what is pushed into it, and only the task of its loop takes events out of it, one
at a time (`loop_segment`). All that anybody else does to a loop is to push events, to end the feed
and to tell it to stop (`loop_of_other`).
-/

namespace Rollcall

structure EventLoop.Fed (l l' : EventLoop) (events : List Event) : Prop where
  queue : l'.queue = l.queue ++ events
  running : l'.running = l.running
  stopping : l.stopping = true → l'.stopping = true
  feeding : l'.feeding = true → l.feeding = true

theorem EventLoop.Fed.refl (l : EventLoop) : l.Fed l [] :=
  ⟨(List.append_nil _).symm, rfl, fun h => h, fun h => h⟩

namespace Hub

variable {h g : Hub} {t t' : TaskId} {a : Action} {d : Delivery} {index : Nat} {l : EventLoop}
  {current : Option Delivery}

def pushes (h : Hub) (index : Nat) : Action → List Event
  | .push i events => if i = index ∧ h.canPush index then events else []
  | _ => []

def pushed (h : Hub) (index : Nat) : List Action → List Event
  | [] => []
  | a :: past => h.pushed index past ++ (h.after past).pushes index a

/-! ## Segments of others -/

theorem deliver_loops : (h.deliver t d).All fun g => g.loops = h.loops := by
  unfold deliver
  split <;> trivial

theorem receive_loops (e : Event) : (h.receive t e).All fun g => g.loops = h.loops := by
  cases e with
  | other kind => rfl
  | chunk c =>
    cases hm : h.match? c with
    | none =>
      obtain ⟨g, hg⟩ : ∃ g, h.receive t (.chunk c) = .done g () ∧ g.loops = h.loops := by
        have hm' : match? { h with stats.chunks := h.stats.chunks + 1 } c = none := hm
        have hgo := receive.eq_def h t (.chunk c)
        simp only [hm'] at hgo
        exact ⟨_, hgo, rfl⟩
      rw [hg.1]
      exact hg.2
    | some id =>
      rw [receive_of_match hm]
      exact deliver_loops (h := withIntake h (h.intake.countChunk c))

theorem loops_modify_of_ne {i : Nat} (hi : i ≠ index) (f : EventLoop → EventLoop) :
    (h.loops.modify i f)[index]? = h.loops[index]? := by
  rw [Array.getElem?_modify, if_neg hi]

theorem loops_modify_self (hl : h.loops[index]? = some l) (f : EventLoop → EventLoop) :
    (h.loops.modify index f)[index]? = some (f l) := by
  rw [Array.getElem?_modify, if_pos rfl, hl, Option.map_some]

theorem advanceTask_loops {task : Task} (hne : ∀ current, task ≠ .loop index current) :
    (h.advanceTask t task).All fun g => g.loops[index]? = h.loops[index]? := by
  have same {g g' : Hub} (he : g'.loops = g.loops) : g'.loops[index]? = g.loops[index]? := by rw [he]
  cases task with
  | call c =>
    rw [all_call]
    exact advanceCall_aside.imp fun he => same (congrArg Aside.loops he)
  | reader id goal got =>
    exact advanceReader_aside.imp fun he => same (congrArg Aside.loops he)
  | handler e =>
    rw [advanceTask, all_handlerMove]
    exact (receive_loops e).imp same
  | delivering d =>
    rw [advanceTask, all_handlerMove]
    exact deliver_loops.imp same
  | loop i current =>
    have hi : i ≠ index := fun e => hne current (e ▸ rfl)
    have stopped (g : Hub) (hg : g.loops = h.loops) :
        (g.stopLoop i).loops[index]? = h.loops[index]? := by
      rw [stopLoop, loops_modify_of_ne hi, hg]
    rw [advanceTask, advanceLoop]
    split
    · trivial
    · split
      · rename_i d
        split
        · exact stopped (h.interrupt d t) rfl
        · rw [all_loopMove]
          exact deliver_loops.imp same
      · split
        · exact stopped h rfl
        · split
          · rename_i e rest _
            rw [all_loopMove]
            exact (receive_loops e).imp fun he => (same he).trans (loops_modify_of_ne hi _)
          · split
            · trivial
            · exact stopped h rfl

theorem loops_segment (hno : ¬h.IsLoop t index) :
    (h.perform (.segment t)).loops[index]? = h.loops[index]? := by
  have other {task : Task} (ht : h.task? t = some task) :
      (h.advanceTask t task).All fun g => g.loops[index]? = h.loops[index]? := by
    apply advanceTask_loops
    rintro current rfl
    exact hno ⟨current, ht⟩
  cases h.segment_cases t with
  | waits hadv he => rw [he]
  | goesOn task task' g ht hm hf he hself =>
    have hall := other ht
    rw [hm] at hall
    rw [he]
    exact hall
  | ends task g o ht hm hf he hself =>
    have hall := other ht
    rw [hm] at hall
    rw [he]
    exact hall

theorem loops_abandon {task : Task} (hne : ∀ current, task ≠ .loop index current) :
    (h.abandon t task).loops[index]? = h.loops[index]? := by
  unfold abandon
  cases task with
  | call c => simp only; split <;> rfl
  | loop i current =>
    have hi : i ≠ index := fun e => hne current (e ▸ rfl)
    cases current with
    | none => exact loops_modify_of_ne hi _
    | some d => exact loops_modify_of_ne (h := h.interrupt d t) hi _
  | _ => rfl

/-- Whatever is done, but by the task of the loop or by dropping it, feeds the loop at most. -/
theorem loop_of_other (hl : h.loops[index]? = some l)
    (ha : ∀ t, h.IsLoop t index → a ≠ .segment t ∧ a ≠ .dropTask t) :
    ∃ l', (h.perform a).loops[index]? = some l' ∧ l.Fed l' (h.pushes index a) := by
  have same {g : Hub} (hg : g.loops[index]? = h.loops[index]?) :
      ∃ l', g.loops[index]? = some l' ∧ l.Fed l' [] := ⟨l, hg.trans hl, .refl l⟩
  have modified (i : Nat) (f : EventLoop → EventLoop) (hf : l.Fed (f l) []) :
      ∃ l', (h.loops.modify i f)[index]? = some l' ∧ l.Fed l' [] := by
    by_cases hi : i = index
    · subst hi
      exact ⟨f l, loops_modify_self hl f, hf⟩
    · exact ⟨l, (loops_modify_of_ne hi f).trans hl, .refl l⟩
  cases a with
  | run =>
    have hlt := (Array.getElem?_eq_some_iff.mp hl).1
    refine same ?_
    rw [Array.getElem?_eq_getElem hlt]
    exact Array.getElem?_push_lt hlt
  | read id goal =>
    simp only [perform]
    split <;> exact same rfl
  | push i events =>
    simp only [perform, push, pushes]
    by_cases hi : i = index
    · subst hi
      by_cases hc : h.canPush i = true
      · rw [if_pos hc, if_pos ⟨rfl, hc⟩]
        exact ⟨_, loops_modify_self hl _, rfl, rfl, fun hs => hs, fun hf => hf⟩
      · have hno : ¬(i = i ∧ h.canPush i = true) := fun both => hc both.2
        rw [if_neg hc, if_neg hno]
        exact same rfl
    · have hno : ¬(i = index ∧ h.canPush index = true) := fun both => hi both.1
      rw [if_neg hno]
      split
      · exact ⟨l, (loops_modify_of_ne hi _).trans hl, .refl l⟩
      · exact same rfl
  | endLoop i => exact modified i _ ⟨(List.append_nil _).symm, rfl, fun hs => hs,
      fun hf => absurd hf Bool.false_ne_true⟩
  | tellToStop i => exact modified i _ ⟨(List.append_nil _).symm, rfl, fun _ => rfl, fun hf => hf⟩
  | recv id =>
    simp only [perform]
    split <;> exact same rfl
  | discard id =>
    simp only [perform]
    split <;> exact same rfl
  | cancelToken token =>
    simp only [perform, cancelToken]
    split <;> exact same rfl
  | release shard place result =>
    obtain ⟨shards, he | ⟨t', c, id, -, -, he⟩⟩ := h.release_cases shard place result
    · exact same (by rw [perform, he])
    · exact same (by rw [perform, he]; rfl)
  | dropTask t =>
    simp only [perform, dropTask]
    cases ht : h.task? t with
    | none => exact same rfl
    | some task =>
      refine same (loops_abandon fun current e => ?_)
      exact (ha t ⟨current, ht.trans (congrArg some e)⟩).2 rfl
  | segment t => exact same (loops_segment fun hloop => (ha t hloop).1 rfl)
  | _ => exact same rfl

/-! ## Segments of its own -/

inductive LoopSegment (h : Hub) (t : TaskId) (index : Nat) (current : Option Delivery)
    (l : EventLoop) (h' : Hub) : Prop
  | waits (hs : l.stopping = false) (he : h' = h) (hbegins : h.begins (.segment t) = [])
  | goesOn (current' : Option Delivery) (hs : l.stopping = false)
      (hself : h'.task? t = some (.loop index current'))
      (hl : h'.loops[index]? = some l) (hbegins : h.begins (.segment t) = [])
  | takes (e : Event) (rest : List Event) (current' : Option Delivery) (hs : l.stopping = false)
      (hself : h'.task? t = some (.loop index current')) (hqueue : l.queue = e :: rest)
      (hl : h'.loops[index]? = some { l with queue := rest })
      (hbegins : h.begins (.segment t) = [e])
  | stops (hwhy : l.stopping = true ∨ current = none ∧ l.queue = [] ∧ l.feeding = false)
      (he : h' = { setTask (stopLoop (current.elim h fun d => h.interrupt d t) index) t none with
        finished := h.finished.push (t, .stopped) })
      (hgone : h'.task? t = none) (hbegins : h.begins (.segment t) = [])

theorem loopMove_cases (index : Nat) {m : Move Hub Delivery Unit} {P : Hub → Prop} (hall : m.All P)
    (hm : m ≠ .blocked) : ∃ g current, loopMove index m = .moved g (.loop index current) ∧ P g := by
  cases m with
  | blocked => exact absurd rfl hm
  | moved g d => exact ⟨g, some d, rfl, hall⟩
  | done g u => exact ⟨g, none, rfl, hall⟩

section

variable (ht : h.task? t = some (.loop index current))
include ht

theorem nextOf_loop : h.nextOf t = h.next? (.loop index current) := by
  rw [nextOf, ht, Option.bind_some]

theorem segment_of_loop_blocked (hm : h.advanceLoop t index current = .blocked) :
    h.perform (.segment t) = h := by
  rw [perform, advance_of_blocked ht hm]
  rfl

theorem segment_of_loop_moved {g : Hub} {current' : Option Delivery} {l' : EventLoop}
    (hm : h.advanceLoop t index current = .moved g (.loop index current'))
    (hg : g.loops[index]? = some l') :
    (h.perform (.segment t)).task? t = some (.loop index current') ∧
      (h.perform (.segment t)).loops[index]? = some l' := by
  have htasks : g.tasks = h.tasks := by
    have hleads := advanceLoop_leads ht
    rw [hm] at hleads
    exact congrArg Frame.tasks hleads.1
  rw [perform, advance_of_moved ht hm]
  exact ⟨task?_setTask_self ht htasks _, hg⟩

theorem segment_of_loop_done
    (hwhy : l.stopping = true ∨ current = none ∧ l.queue = [] ∧ l.feeding = false)
    (hm : h.advanceLoop t index current =
      .done (stopLoop (current.elim h fun d => h.interrupt d t) index) .stopped)
    (hbegins : h.begins (.segment t) = []) :
    h.LoopSegment t index current l (h.perform (.segment t)) := by
  have hend := perform_of_done ht hm
  refine .stops hwhy (hend.trans ?_) ?_ hbegins
  · cases current <;> rfl
  · rw [hend]
    refine task?_setTask_self ht ?_ none
    cases current <;> rfl

end

section

variable (hl : h.loops[index]? = some l)
include hl

theorem loop_segment_delivery {d : Delivery} (ht : h.task? t = some (.loop index (some d)))
    (hs : l.stopping = false) :
    h.LoopSegment t index (some d) l (h.perform (.segment t)) := by
  have hm : h.advanceLoop t index (some d) = loopMove index (h.deliver t d) := by
    simp [advanceLoop, hl, hs]
  have hbegins : h.begins (.segment t) = [] := by
    rw [begins, nextOf_loop ht]
    simp [next?, hl, hs]
  by_cases hblocked : h.deliver t d = .blocked
  · refine .waits hs (segment_of_loop_blocked ht ?_) hbegins
    rw [hm, hblocked]
    rfl
  · obtain ⟨g, current', hmoved, hg⟩ := loopMove_cases index deliver_loops hblocked
    obtain ⟨hself, hl'⟩ :=
      segment_of_loop_moved ht (hm.trans hmoved) ((congrArg (·[index]?) hg).trans hl)
    exact .goesOn current' hs hself hl' hbegins

theorem loop_segment_event {e : Event} {rest : List Event} (hb : h.book.Sound)
    (ht : h.task? t = some (.loop index none)) (hs : l.stopping = false)
    (hqueue : l.queue = e :: rest) :
    h.LoopSegment t index none l (h.perform (.segment t)) := by
  let h₁ : Hub := { h with loops := h.loops.modify index fun l => { l with queue := rest } }
  have hm : h.advanceLoop t index none = loopMove index (h₁.receive t e) := by
    simp [advanceLoop, hl, hs, hqueue, h₁]
  have hbegins : h.begins (.segment t) = [e] := by
    rw [begins, nextOf_loop ht]
    simp [next?, hl, hs, hqueue]
  have hblocked : h₁.receive t e ≠ .blocked := by
    apply receive_ne_blocked
    exact hb
  obtain ⟨g, current', hmoved, hg⟩ := loopMove_cases index (receive_loops e) hblocked
  have hl₁ : g.loops[index]? = some { l with queue := rest } := by
    rw [hg]
    exact loops_modify_self hl _
  obtain ⟨hself, hl'⟩ := segment_of_loop_moved ht (hm.trans hmoved) hl₁
  exact .takes e rest current' hs hself hqueue hl' hbegins

theorem loop_segment_idle (ht : h.task? t = some (.loop index none)) (hs : l.stopping = false)
    (hqueue : l.queue = []) : h.LoopSegment t index none l (h.perform (.segment t)) := by
  have hbegins : h.begins (.segment t) = [] := by
    rw [begins, nextOf_loop ht]
    simp [next?, hl, hqueue]
  by_cases hf : l.feeding = true
  · refine .waits hs (segment_of_loop_blocked ht ?_) hbegins
    simp [advanceLoop, hl, hs, hqueue, hf]
  · refine segment_of_loop_done ht (.inr ⟨rfl, hqueue, by simpa using hf⟩) ?_ hbegins
    simp [advanceLoop, hl, hs, hqueue, hf]

end

theorem loop_segment (hb : h.book.Sound) (ht : h.task? t = some (.loop index current))
    (hl : h.loops[index]? = some l) :
    h.LoopSegment t index current l (h.perform (.segment t)) := by
  cases hs : l.stopping with
  | true =>
    apply segment_of_loop_done ht (.inl hs)
    · cases current <;> simp [advanceLoop, hl, hs]
    · rw [begins, nextOf_loop ht]
      simp [next?, hl, hs]
  | false =>
    cases current with
    | some d => exact loop_segment_delivery hl ht hs
    | none =>
      cases hqueue : l.queue with
      | nil => exact loop_segment_idle hl ht hs hqueue
      | cons e rest => exact loop_segment_event hl hb ht hs hqueue

end Hub
end Rollcall
