import Rollcall.Proofs.Reading

/-!
# What a task will have taken in

The outlook of a task that attends to events, as a loop or as the handler of a single one, is what
its chunk at hand and the events that are left to it come to, if they are taken in at once. As long
as no other chunk is handed over, no segment of the task changes its outlook (`Works.step`), and
reading changes nothing in it but what has been read (`Works.of_reading`).
-/

namespace Rollcall
namespace Hub

def outlook (h : Hub) (t : TaskId) (current : Option Delivery) (queue : List Event) : Intake :=
  (current.elim h.intake (h.intake.finish t)).takeAll h.caching queue

/-- Whether task `t` has chunk `current` at hand and then goes on to the events `queue`: as the loop
of a number, or as a handler, which has none and is gone when it is done. -/
inductive Tends (h : Hub) (t : TaskId) : Option Nat → Option Delivery → List Event → Prop
  | loop {index : Nat} {current : Option Delivery} {l : EventLoop} {queue : List Event}
      (ht : h.task? t = some (.loop index current)) (hl : h.loops[index]? = some l)
      (hf : l.feeding = true) (hs : l.stopping = false) (hq : l.queue = queue) :
      Tends h t (some index) current queue
  | handler {e : Event} (ht : h.task? t = some (.handler e)) : Tends h t none none [e]
  | delivering {d : Delivery} (ht : h.task? t = some (.delivering d)) : Tends h t none (some d) []
  | handled (ht : h.task? t = none) : Tends h t none none []

inductive Works (h : Hub) (t : TaskId) (index : Option Nat) (x : Intake) : Prop
  | intro {current : Option Delivery} {queue : List Event} (ht : h.Tends t index current queue)
      (hlive : ∀ d ∈ current, d.Placing ∧
        ∃ r, h.book.requests[d.request]? = some r ∧ r.cancelled = false)
      (hx : (h.outlook t current queue).drained = x.drained)

variable {h g : Hub} {t : TaskId} {index : Option Nat} {x : Intake} {r : Request}
  {current : Option Delivery} {queue : List Event}

theorem Tends.of_same (ht : h.Tends t index current queue) (hts : g.task? t = h.task? t)
    (hl : g.loops = h.loops) : g.Tends t index current queue := by
  cases ht with
  | loop ht hloop hf hs hq => exact .loop (hts.trans ht) (by rw [hl, hloop]) hf hs hq
  | handler ht => exact .handler (hts.trans ht)
  | delivering ht => exact .delivering (hts.trans ht)
  | handled ht => exact .handled (hts.trans ht)

theorem Tends.delivery? (ht : h.Tends t index current queue) : h.delivery? t = current := by
  cases ht with
  | loop ht => exact delivery?_of_task ht
  | handler ht => exact delivery?_of_task ht
  | delivering ht => exact delivery?_of_task ht
  | handled ht => simp [Hub.delivery?, ht]

theorem Works.of_reading (hw : h.Works t index x) (ht : g.task? t = h.task? t)
    (hl : g.loops = h.loops) (hc : g.caching = h.caching)
    (hd : g.intake.drained = h.intake.drained) : g.Works t index x := by
  obtain ⟨htends, hlive, hx⟩ := hw
  refine .intro (htends.of_same ht hl) (fun d hd' => ?_) ?_
  · obtain ⟨hplacing, r, hq, hc⟩ := hlive d hd'
    obtain ⟨r', hq', he⟩ := Book.exists_of_drained (congrArg Intake.book hd) hq
    have hcancelled : r'.drained.cancelled = r.drained.cancelled := by rw [he]
    exact ⟨hplacing, r', hq', hcancelled.trans hc⟩
  · rw [← hx]
    simp only [outlook, hc]
    apply Intake.drained_takeAll
    rename_i current queue
    cases current with
    | none => exact hd
    | some d =>
      show (g.intake.finish t d).drained = (h.intake.finish t d).drained
      rw [Intake.drained_finish, hd, ← Intake.drained_finish]

inductive Resumes (h : Hub) (m : Move Hub Delivery Unit) :
    Option Nat → List Event → Move Hub Task Outcome → Prop
  | loop {index : Nat} {l : EventLoop} {queue : List Event} (hl : h.loops[index]? = some l)
      (hf : l.feeding = true) (hs : l.stopping = false) (hq : l.queue = queue) :
      Resumes h m (some index) queue (loopMove index m)
  | handler : Resumes h m none [] (handlerMove m)

/-- What a move of such a task leads to that leaves what its events come to as it is. -/
theorem works_of_nears (h₁ : Hub) {task : Task} {y : Intake} {fits : Prop}
    {m : Move Hub Delivery Unit} (ht : h.task? t = some task) (hts : h₁.tasks = h.tasks)
    (ha : Around index h h₁) (hm : h₁.Nears t y fits m)
    (hadv : h₁.Resumes m index queue (h.advanceTask t task))
    (hy : (y.takeAll h₁.caching queue).drained = x.drained) (hg : h.advance t = some g) :
    g.Works t index x ∧ Around index h g := by
  generalize hnext : h.advanceTask t task = next at hadv
  have around {z : Intake} {o : Option Task} : Around index h ((h₁.withIntake z).setTask t o) :=
    ⟨ha.now, ha.tokens, ha.caching, ha.loops⟩
  cases hm with
  | @moved z d r hq htakes hplacing hz hfits =>
    have hlive {k : Hub} (hk : k.book = z.book) (d') (hd' : d' ∈ some d) : d'.Placing ∧
        ∃ r, k.book.requests[d'.request]? = some r ∧ r.cancelled = false := by
      cases hd'
      exact ⟨hplacing, r, by rw [hk, hq], htakes.live⟩
    have hout : ((z.finish t d).takeAll h₁.caching queue).drained = x.drained := by
      rw [hz, hy]
    cases hadv with
    | loop hl hf hs hleft =>
      cases (advance_of_moved ht hnext).symm.trans hg
      exact ⟨.intro (.loop (task?_setTask_self ht hts _) hl hf hs hleft) (hlive rfl) hout, around⟩
    | handler =>
      cases (advance_of_moved ht hnext).symm.trans hg
      exact ⟨.intro (.delivering (task?_setTask_self ht hts _)) (hlive rfl) hout, around⟩
  | done hfits =>
    cases hadv with
    | loop hl hf hs hleft =>
      cases (advance_of_moved ht hnext).symm.trans hg
      exact ⟨.intro (.loop (task?_setTask_self ht hts _) hl hf hs hleft) nofun hy, around⟩
    | handler =>
      cases (advance_of_done ht hnext).symm.trans hg
      refine ⟨.intro (.handled ?_) nofun hy, ha.now, ha.tokens, ha.caching, ha.loops⟩
      exact task?_setTask_self ht hts none

section

variable {j : List Occurrence} (hr : Reached j h.scene)
include hr

theorem works_of_chunk {d : Delivery} (ht : h.Tends t index (some d) queue)
    (hx : (h.outlook t (some d) queue).drained = x.drained) (hplacing : d.Placing)
    (hq : h.book.requests[d.request]? = some r) (hc : r.cancelled = false)
    (hg : h.advance t = some g) : g.Works t index x ∧ Around index h g := by
  obtain ⟨m, rest, n, k, hd⟩ := hplacing
  have hdelivery := ht.delivery?
  obtain ⟨r', hq', hhead, hopen⟩ := hr.lined.placing hdelivery hd
  cases hq.symm.trans hq'
  have hsound := hr.sound.request _ r hq
  have hlistens := hsound.receiver (hsound.waiting_of_open hc hopen)
  have htakes : r.Takes t := ⟨hc, hopen, decide_eq_true hlistens, hhead⟩
  have goesOn {task : Task} (htask : h.task? t = some task)
      (hadv : h.Resumes (h.deliver t d) index queue (h.advanceTask t task))
      (hne : h.deliver t d ≠ .blocked) : g.Works t index x ∧ Around index h g :=
    works_of_nears h htask rfl ⟨rfl, rfl, rfl, fun _ _ => rfl⟩
      (deliver_nears hq htakes (hr.lined.arrived hdelivery) hne) hadv hx hg
  cases ht with
  | @loop index current l queue htask hl hf hs hleft =>
    have hadv : h.advanceTask t (.loop index (some d)) = loopMove index (h.deliver t d) := by
      simp [advanceTask, advanceLoop, hl, hs]
    refine goesOn htask (hadv ▸ .loop hl hf hs hleft) fun hm => ?_
    rw [hm] at hadv
    cases (advance_of_blocked htask hadv).symm.trans hg
  | delivering htask =>
    refine goesOn htask .handler fun hm => ?_
    have hadv : h.advanceTask t (.delivering d) = .blocked := by
      simp [advanceTask, hm, handlerMove]
    cases (advance_of_blocked htask hadv).symm.trans hg

theorem works_of_event (hsole : ∀ t' d, h.delivery? t' = some d → t' = t)
    (ht : h.Tends t index none queue) (hx : (h.outlook t none queue).drained = x.drained)
    (hg : h.advance t = some g) : g.Works t index x ∧ Around index h g := by
  -- No chunk is in line, for it would be at hand.
  have hline {h₁ : Hub} (hbook : h₁.book = h.book) (e : Event) (c : Chunk) (id : RequestId)
      (r : Request) (he : e = .chunk c) (hid : h₁.match? c = some id)
      (hq : h₁.book.requests[id]? = some r) : r.line = [] := by
    rw [List.eq_nil_iff_forall_not_mem]
    intro t' hm
    rw [hbook] at hq
    obtain ⟨d, hd, -⟩ := hr.lined.holds hq hm
    obtain rfl := hsole t' d hd
    cases ht.delivery?.symm.trans hd
  cases ht with
  | @loop index current l queue htask hl hf hs hleft =>
    cases queue with
    | nil =>
      have hadv : h.advanceTask t (.loop index none) = .blocked := by
        simp [advanceTask, advanceLoop, hl, hs, hleft, hf]
      cases (advance_of_blocked htask hadv).symm.trans hg
    | cons e rest =>
      let h₁ : Hub := { h with loops := h.loops.modify index fun l => { l with queue := rest } }
      have hadv : h.advanceTask t (.loop index none) = loopMove index (h₁.receive t e) := by
        simp [advanceTask, advanceLoop, hl, hs, hleft, h₁]
      have hl₁ : h₁.loops[index]? = some { l with queue := rest } := by
        simp [h₁, Array.getElem?_modify, hl]
      have haround : Around (some index) h h₁ := by
        refine ⟨rfl, rfl, rfl, fun i hi => ?_⟩
        have hi : index ≠ i := by
          rintro rfl
          exact hi rfl
        simp [h₁, Array.getElem?_modify, hi]
      have hnears := receive_nears (h := h₁) (t := t) (e := e) hr.sound (hline rfl e)
      have hresumes : h₁.Resumes (h₁.receive t e) (some index) rest
          (h.advanceTask t (.loop index none)) := by
        rw [hadv]
        exact .loop hl₁ hf hs rfl
      exact works_of_nears h₁ htask rfl haround hnears hresumes hx hg
  | @handler e htask =>
    have hnears := receive_nears (t := t) (e := e) hr.sound (hline rfl e)
    exact works_of_nears h htask rfl ⟨rfl, rfl, rfl, fun _ _ => rfl⟩ hnears .handler hx hg
  | handled htask => cases (advance_of_gone htask).symm.trans hg

end

theorem Works.step {j : List Occurrence} (hr : Reached j h.scene)
    (hsole : ∀ t' d, h.delivery? t' = some d → t' = t) (hw : h.Works t index x)
    (hg : h.advance t = some g) : g.Works t index x ∧ Around index h g := by
  obtain ⟨ht, hlive, hx⟩ := hw
  rename_i current queue
  cases current with
  | some d =>
    obtain ⟨hplacing, r, hq, hc⟩ := hlive d rfl
    exact works_of_chunk hr ht hx hplacing hq hc hg
  | none => exact works_of_event hr hsole ht hx hg

end Hub
end Rollcall
