import Rollcall.Proofs.Commands
import Rollcall.Proofs.Standstill
import Rollcall.Proofs.Sweeping

/-!
# Deadlines

The time that a plain call may take is counted from its first segment. When it is over, the call ends
wherever it waits, and leaves nothing behind that waits for it; before that it ends with what it has
been waiting for, or not at all. Main statement: `timeout_bounds_call`.
-/

namespace Rollcall

/-! ## A nonce that is issued again -/

theorem Change.fresh_of_made {s s' : Scene} {os : List Occurrence} {t : TaskId} {id : RequestId}
    (h : Change s os s') (hm : .made t id ∈ os) :
    ∃ r, s'.book.requests[id]? = some r ∧ r.Fresh := by
  obtain ⟨-, rfl, -⟩ := h.made hm
  cases h with
  | make ht hs hf hb =>
    obtain ⟨nonce, -, -, hreq, -⟩ := Book.registerWith_some hb
    refine ⟨_, ?_, (hf nonce).1⟩
    simp only [Scene.set, hreq, Array.getElem?_push, if_pos]
  | _ => simp at hm

theorem Reached.superseded {j : List Occurrence} {s : Scene} (hr : Reached j s)
    {id id' : RequestId} (hlt : id < id') {r r' : Request} (hq : s.book.requests[id]? = some r)
    (hq' : s.book.requests[id']? = some r') (hnonce : r'.nonce = r.nonce) : ¬r.Waiting := by
  induction hr generalizing r r' with
  | new nonces => cases hq
  | @step j os s s' hr h ih =>
    have hsound := (hr.step h).sound
    intro hw
    by_cases hold : id' < s.book.requests.size
    · have hold₀ : id < s.book.requests.size := Nat.lt_trans hlt hold
      obtain ⟨r₁, h₁, hl⟩ := hr.later h id _ (Array.getElem?_eq_getElem hold₀)
      obtain ⟨r₁', h₁', hl'⟩ := hr.later h id' _ (Array.getElem?_eq_getElem hold)
      cases hq.symm.trans h₁
      cases hq'.symm.trans h₁'
      have hsame := hl'.nonce.symm.trans (hnonce.trans hl.nonce)
      exact ih (Array.getElem?_eq_getElem hold₀) (Array.getElem?_eq_getElem hold) hsame
        (hl.waiting hw)
    · -- The later request is made just now; it waits, so the earlier cannot have its nonce.
      have hnew := (Array.getElem?_eq_some_iff.mp hq').1
      have hmade : made os ≠ [] := fun hnone =>
        hold (hr.size_eq (.one h) hnone ▸ hnew)
      obtain ⟨i, hi⟩ := List.exists_mem_of_ne_nil _ hmade
      obtain ⟨t, hm⟩ := mem_made.mp hi
      obtain ⟨-, rfl, hsize, -⟩ := h.made hm
      have hle := Nat.le_of_lt_succ (Nat.lt_of_lt_of_eq hnew hsize)
      have hid : id' = s.book.requests.size := Nat.le_antisymm hle (Nat.le_of_not_lt hold)
      obtain ⟨q, hfresh, hf⟩ := h.fresh_of_made hm
      rw [← hid, hq'] at hfresh
      cases hfresh
      have hw' := (Request.Sound.fresh hf).2
      have hreg := (hsound.get?_nonce hq).mpr hw
      rw [← hnonce, (hsound.get?_nonce hq').mpr hw'] at hreg
      exact absurd (Option.some.inj hreg) (Nat.ne_of_gt hlt)

namespace Hub

variable {h g : Hub} {t : TaskId} {id : RequestId} {c : Call}

/-! ## Time -/

theorem now_le_perform (h : Hub) (a : Action) : h.now.nanos ≤ (h.perform a).now.nanos := by
  have same {g : Hub} (hg : g.now = h.now) : h.now.nanos ≤ g.now.nanos := Nat.le_of_eq (hg ▸ rfl)
  cases h.reframes a with
  | kept hf => exact same (congrArg Frame.now hf)
  | queued hf => exact same (congrArg Frame.now hf)
  | cancelled token hf => exact same (congrArg Frame.now hf)
  | advanced d hf =>
    have hnow : (h.perform a).now = ⟨h.now.nanos + d.nanos⟩ := congrArg Frame.now hf
    rw [hnow]
    exact Nat.le_add_right _ _
  | ended t task g o ha ht hm hf he => exact same (he ▸ congrArg Frame.now hf)

theorem now_le_after (h : Hub) (past : List Action) : ∀ later,
    (h.after past).now.nanos ≤ (h.after (later ++ past)).now.nanos
  | [] => Nat.le_refl _
  | a :: later => Nat.le_trans (h.now_le_after past later) (now_le_perform _ a)

def firstRun (h : Hub) (t : TaskId) : List Action → Option Duration
  | [] => none
  | .segment t' :: past => (h.firstRun t past).or
      (if t' = t ∧ ((h.after past).task? t).isSome then some (h.after past).now else none)
  | _ :: past => h.firstRun t past

theorem firstRun_cons {a : Action} (ha : a ≠ .segment t) (past : List Action) :
    h.firstRun t (a :: past) = h.firstRun t past := by
  cases a with
  | segment t' =>
    have hne : t' ≠ t := fun e => ha (e ▸ rfl)
    simp [firstRun, hne]
  | _ => rfl

theorem firstRun_segment {past : List Action} (hnone : h.firstRun t past = none) {task : Task}
    (ht : (h.after past).task? t = some task) :
    h.firstRun t (.segment t :: past) = some (h.after past).now := by
  simp [firstRun, hnone, ht]

theorem firstRun_append {past : List Action} {start : Duration}
    (hs : h.firstRun t past = some start) : ∀ later, h.firstRun t (later ++ past) = some start
  | [] => hs
  | a :: later => by
    have ih := firstRun_append hs later
    rw [List.cons_append]
    cases a with
    | segment t' => rw [firstRun, ih, Option.some_or]
    | _ => exact ih

theorem firstRun_of_unstarted {past : List Action} (hle : (h.after past).tasks.size ≤ t) :
    h.firstRun t past = none := by
  induction past with
  | nil => rfl
  | cons a past ih =>
    have hle₀ := Nat.le_trans (h.size_le_after past [a]) hle
    cases a with
    | segment t' =>
      have hnone : (h.after past).task? t = none := by
        rw [task?, Array.getElem?_eq_none hle₀]
        rfl
      simp [firstRun, ih hle₀, hnone]
    | _ => exact ih hle₀

/-! ## The deadline of a plain call -/

structure Timed (h : Hub) (t : TaskId) (past : List Action) (c : Call) : Prop where
  timeout : c.timeout = h.limits.timeout
  unbegun : c.stage = .starting → h.firstRun t past = none ∧ c.deadline = none
  begun : c.stage ≠ .starting → ∃ start, h.firstRun t past = some start ∧
    c.deadline = h.limits.timeout.map fun after => ⟨after, ⟨start.nanos + after.nanos⟩⟩

theorem starting_runs (ht : h.task? t = some (.call c)) (hs : c.stage = .starting) :
    (h.perform (.segment t)).task? t ≠ some (.call c) := by
  intro hsame
  cases h.segment_cases t with
  | waits hadv he =>
    have hm := advanceCall_of_blocked (blocked_of_stuck hadv ht)
    simp only [advanceCall, hs] at hm
    split at hm
    · exact advanceStart_ne_blocked ‹_›
    · exact absurd hm ‹_›
  | goesOn task task' g ht' hm hf he hself =>
    cases ht.symm.trans ht'
    cases hsame.symm.trans hself
    obtain ⟨c₀, hc, hcall⟩ := call_of_moved hm
    cases hc
    exact (advanceCall_moves hcall).begun hs
  | ends task g o ht' hm hf he hself => cases hsame.symm.trans hself

theorem timed (hn : h.IsNew) {past : List Action} (ht : (h.after past).task? t = some (.call c))
    (hg : c.goal = .members none) : h.Timed t past c := by
  induction past generalizing c with
  | nil =>
    obtain ⟨limits, selection, shards, caching, nonces, rfl⟩ := hn.eq
    cases ht
  | cons a past ih =>
    cases follows ht with
    | started hsize ha hs hd hp =>
      have hnot : a ≠ .segment t := by cases ha <;> exact nofun
      have hnone : h.firstRun t (a :: past) = none := by
        rw [firstRun_cons hnot, firstRun_of_unstarted (Nat.le_of_eq hsize.symm)]
      have htimeout := (hp hg).trans (congrArg Limits.timeout (h.limits_after past))
      exact ⟨htimeout, fun _ => ⟨hnone, hd⟩, fun hb => absurd hs hb⟩
    | kept h0 =>
      obtain ⟨htimeout, hunbegun, hbegun⟩ := ih h0 hg
      refine ⟨htimeout, fun hs => ?_, fun hs => ?_⟩
      · have hnot : a ≠ .segment t := by
          rintro rfl
          exact starting_runs h0 hs ht
        rw [firstRun_cons hnot]
        exact hunbegun hs
      · obtain ⟨start, hstart, hd⟩ := hbegun hs
        exact ⟨start, firstRun_append hstart [a], hd⟩
    | @went c₀ ha h0 hm =>
      subst ha
      obtain ⟨stage, rfl⟩ := hm.running
      obtain ⟨htimeout, hunbegun, hbegun⟩ := ih h0 (by simpa using hg)
      refine ⟨by simpa using htimeout, fun hs => absurd hs hm.begun, fun _ => ?_⟩
      by_cases hs : c₀.stage = .starting
      · refine ⟨(h.after past).now, firstRun_segment (hunbegun hs).1 h0, ?_⟩
        rw [Call.running_of_starting hs, ← htimeout]
        rfl
      · obtain ⟨start, hstart, hd⟩ := hbegun hs
        refine ⟨start, firstRun_append hstart [_], ?_⟩
        rw [Call.running_of_begun hs]
        exact hd
    | released ha h0 hs hc =>
      subst hc
      obtain ⟨htimeout, -, hbegun⟩ := ih h0 hg
      refine ⟨htimeout, nofun, fun _ => ?_⟩
      obtain ⟨start, hstart, hd⟩ := hbegun (by simp [hs])
      exact ⟨start, firstRun_append hstart [a], hd⟩

/-! ## The end of the time -/

theorem start_ne_timedOut {i : Inquiry} {d : Duration} :
    (h.start t i).1 ≠ .failed (.timedOut d) := by
  unfold start Shard.route
  split
  · rename_i f hf
    split at hf <;> cases hf
    exact nofun
  split
  · exact nofun
  split
  · exact nofun
  split
  · rename_i f hf
    obtain ⟨ids, reason, -, -, rfl⟩ := refusal?_some hf
    exact nofun
  split
  · exact nofun
  simp only
  split <;> exact nofun

/-- A call is out of time only by a deadline that has come. -/
theorem deadline_of_timedOut {d : Duration}
    (hm : h.advanceCall t c = .done g (.failed (.timedOut d))) :
    ∃ due, c.deadline = some ⟨d, due⟩ ∧ due.nanos ≤ h.now.nanos := by
  cases ending hm with
  | expired deadline hd hdue ho =>
    cases ho
    exact ⟨deadline.due, hd, hdue⟩
  | refused f hs hst ho =>
    cases ho
    exact absurd (congrArg Prod.fst hst) start_ne_timedOut
  | cancelled ho => cases ho
  | oversized hs hst ho => cases ho
  | unsent id cause hh ho => cases ho
  | opened id hg hh ho => cases ho
  | gathered id got hs htoken hend hlive ho => cases ho

theorem elapsed_of_timedOut (hn : h.IsNew) {past : List Action}
    (hc : .called t (.members none) ∈ h.journal past) {d : Duration}
    (ho : (t, .failed (.timedOut d)) ∈ (h.after past).finished) :
    h.limits.timeout = some d ∧ (∃ id, .made t id ∈ h.journal past) ∧ ∃ start,
      h.firstRun t past = some start ∧ start.nanos + d.nanos ≤ (h.after past).now.nanos := by
  obtain ⟨later, earlier, task, g, rfl, ht, hm, -⟩ := ended_at hn ho
  have hsplit : later ++ .segment t :: earlier = (later ++ [.segment t]) ++ earlier := by simp
  rw [hsplit] at hc ⊢
  obtain ⟨c, rfl, hg⟩ := call_of_called hn _ hc ht
  obtain ⟨due, hd, hdue⟩ := deadline_of_timedOut (advanceCall_of_done hm)
  obtain ⟨-, hunbegun, hbegun⟩ := timed hn ht hg
  have hs : c.stage ≠ .starting := by
    intro hs
    rw [(hunbegun hs).2] at hd
    cases hd
  obtain ⟨start, hstart, hdead⟩ := hbegun hs
  obtain ⟨after, hT, he⟩ := Option.map_eq_some_iff.mp (hdead.symm.trans hd)
  cases he
  obtain ⟨id, hid⟩ : ∃ id, (Task.call c).stream? = some id := by
    cases hstage : c.stage with
    | starting => exact absurd hstage hs
    | sending id result => exact ⟨id, by simp [Task.stream?, hstage]⟩
    | reading id got => exact ⟨id, by simp [Task.stream?, hstage]⟩
  have hmade := ((Reached.after hn earlier).made_iff ht id).mpr hid
  obtain ⟨os, hj, -⟩ := h.changes_append earlier (later ++ [.segment t])
  refine ⟨hT, ⟨id, hj ▸ List.mem_append_left _ hmade⟩, start, firstRun_append hstart _, ?_⟩
  exact Nat.le_trans hdue (h.now_le_after earlier _)

/-- When no task can move, a call whose time is over is gone. -/
theorem gone_of_elapsed (hn : h.IsNew) {past : List Action}
    (hc : .called t (.members none) ∈ h.journal past) {after start : Duration}
    (hT : h.limits.timeout = some after) (hstart : h.firstRun t past = some start)
    (hle : start.nanos + after.nanos ≤ (h.after past).now.nanos) (hq : (h.after past).Quiet) :
    (h.after past).task? t = none := by
  cases ht : (h.after past).task? t with
  | none => rfl
  | some task =>
    obtain ⟨c, rfl, hg⟩ := call_of_called hn [] hc ht
    obtain ⟨-, hunbegun, hbegun⟩ := timed hn ht hg
    have hs : c.stage ≠ .starting := by
      intro hs
      cases hstart.symm.trans (hunbegun hs).1
    obtain ⟨start', hstart', hd⟩ := hbegun hs
    cases hstart.symm.trans hstart'
    rw [hT] at hd
    -- A call that waits has a deadline that is still to come.
    have hundue : (h.after past).Undue c.deadline := by
      have hblocked := advanceCall_of_blocked (blocked_of_quiet hq ht)
      unfold advanceCall at hblocked
      simp only at hblocked
      split at hblocked
      · exact expire_blocked.mp hblocked
      · exact absurd hblocked ‹_›
    exact absurd hle (Nat.not_le_of_lt (hundue _ hd))

/-- A chunk with the nonce of a request that is not registered finds a later request, if any. -/
theorem later_of_match (hn : h.IsNew) {past : List Action}
    (hm : .made t id ∈ h.journal past)
    (hno : ∀ n, (h.after past).book.registry.get? n ≠ some id) {c : Chunk}
    (hc : c.nonce = some ((h.after past).book.nonceOf id)) {id' : RequestId}
    (hmatch : (h.after past).match? c = some id') :
    id < id' ∧ (h.after past).book.nonceOf id' = (h.after past).book.nonceOf id := by
  have hr := Reached.after hn past
  have hreg : (h.after past).book.registry.get? ((h.after past).book.nonceOf id) = some id' := by
    rwa [match?, hc] at hmatch
  have hq : (h.after past).book.requests[id]? = some _ :=
    Array.getElem?_eq_getElem (hr.made_lt hm).2
  obtain ⟨r', hq', hnonce, hw'⟩ := (hr.sound.registered _ _).mp hreg
  have hq' : (h.after past).book.requests[id']? = some r' := hq'
  have hsame : (h.after past).book.nonceOf id' = r'.nonce := by rw [Book.nonceOf, hq']; rfl
  refine ⟨Nat.lt_of_not_le fun hle => ?_, hsame.trans hnonce⟩
  rcases Nat.lt_or_eq_of_le hle with hlt | rfl
  · refine hr.superseded hlt hq' hq ?_ hw'
    rw [hnonce, Book.nonceOf, hq]
    rfl
  · exact hno _ hreg

/-! ## What is there already -/

def EndsPolled (h : Hub) (past : List Action) (t : TaskId) (o : Outcome) : Prop :=
  ∃ n, (h.after (List.replicate n (.segment t) ++ past)).task? t = none ∧
    (t, o) ∈ (h.after (List.replicate n (.segment t) ++ past)).finished

theorem EndsPolled.of_segment {past : List Action} {o : Outcome}
    (he : h.EndsPolled (.segment t :: past) t o) : h.EndsPolled past t o := by
  obtain ⟨n, hn⟩ := he
  refine ⟨n + 1, ?_⟩
  rwa [List.replicate_succ', List.append_assoc, List.singleton_append]

theorem endsPolled_of_done {past : List Action} {task : Task} {o : Outcome}
    (ht : (h.after past).task? t = some task)
    (hm : (h.after past).advanceTask t task = .done g o) : h.EndsPolled past t o := by
  have hleads := advanceTask_leads ht
  rw [hm] at hleads
  refine ⟨1, ?_⟩
  rw [List.replicate_one, List.singleton_append, after_segment (advance_of_done ht hm)]
  exact ⟨task?_setTask_self ht (congrArg Frame.tasks hleads.1) none, Array.mem_push_self⟩

theorem Gathers.endsPolled (hn : h.IsNew) {x : Gatherer} {ms : List Member} {past : List Action}
    (hg : (h.after past).Gathers x id ms t) : h.EndsPolled past t (x.finish ms) := by
  induction hw : (h.after past).weight using Nat.strongRecOn generalizing past with
  | ind w ih =>
    subst hw
    cases hadv : (h.after past).advance t with
    | none => exact ⟨0, hg.ended_of_stuck hn hadv⟩
    | some g =>
      have hlt := weight_lt_of_advance hadv
      rw [← after_segment hadv] at hlt
      exact (ih _ hlt (hg.segment hn t) rfl).of_segment

/-- Whether there is already what a plain call waits for: the failure of its start, what the shard
has answered, or the end of its request. -/
inductive Available (h : Hub) (t : TaskId) (c : Call) : Outcome → Prop
  | failed {f : Failure} {g : Hub} (hs : c.stage = .starting)
      (hst : h.start t c.inquiry = (.failed f, g)) : Available h t c (.failed f)
  | oversized {g : Hub} (hs : c.stage = .starting) (hst : h.start t c.inquiry = (.oversized, g)) :
      Available h t c .oversized
  | unsent {id : RequestId} {cause : TransportFailure} {g : Hub} (hs : c.stage = .starting)
      (hst : h.start t c.inquiry = (.sent id (some (.refused cause)), g)) :
      Available h t c (.failed (.sendFailed cause))
  | refused {id : RequestId} {cause : TransportFailure}
      (hs : c.stage = .sending id (some (.refused cause))) :
      Available h t c (.failed (.sendFailed cause))
  | cancelled {id : RequestId} (hg : c.Gathers id) (hc : h.isCancelled id = true) :
      Available h t c (.failed .cancelled)
  | members {id : RequestId} {r : Request} (hg : c.Gathers id) (hq : h.book.requests[id]? = some r)
      (hc : r.complete = true) : Available h t c (.members r.channel.placed)

section
variable {past : List Action} (ht : (h.after past).task? t = some (.call c))
include ht

theorem endsPolled_of_start (hs : c.stage = .starting) {o : Outcome}
    (hm : (h.after past).advanceStart t c = .done g o) : h.EndsPolled past t o := by
  refine endsPolled_of_done (g := g) ht ?_
  rw [advanceTask_call, advanceCall_starting hs (by rw [hm]; exact nofun), hm]

theorem endsPolled_of_sent {id : RequestId} (hg : c.goal = .members none)
    (hs : c.stage = .sending id (some .sent)) {o : Outcome}
    (hnext : ∀ past', (h.after past').task? t = some (.call { c with stage := .reading id [] }) →
      (h.after past').book = (h.after past).book → h.EndsPolled past' t o) :
    h.EndsPolled past t o := by
  have hm : (h.after past).advanceTask t (.call c) =
      .moved (h.after past) (.call { c with stage := .reading id [] }) := by
    rw [advanceTask_call, advanceCall_of_sent hs]
    simp only [afterSend, hg]
  have he := after_segment (advance_of_moved ht hm)
  refine (hnext (.segment t :: past) ?_ ?_).of_segment
  · rw [he]
    exact task?_setTask_self ht rfl _
  · rw [he]
    rfl

theorem endsPolled_of_cancelled {id : RequestId} {got : List Member}
    (hs : c.stage = .reading id got) (hc : (h.after past).isCancelled id = true) :
    h.EndsPolled past t (.failed .cancelled) := by
  refine endsPolled_of_done (g := (h.after past).dropStream id) ht ?_
  simp only [advanceTask_call, advanceCall, hs, advanceReading_of_cancelled hc]

theorem endsPolled_of_complete (hn : h.IsNew) (hg : c.goal = .members none) {id : RequestId}
    {got : List Member} (hs : c.stage = .reading id got) {r : Request}
    (hq : (h.after past).book.requests[id]? = some r) (hc : r.complete = true) :
    h.EndsPolled past t (.members r.channel.placed) := by
  have hreach := Reached.after hn past
  have hgot : got = r.channel.read := by
    rw [(hreach.gathered ht).1 id got hs, hreach.read_eq hq]
  have htask : (h.after past).task? t = some ((Gatherer.call c).task id got) := by
    rw [ht, Gatherer.task, ← hs]
  refine Gathers.endsPolled (x := .call c) hn (.reads htask ?_ hq hc ?_)
  · simp only [Gatherer.token, hg]
    rfl
  · rw [hgot, Channel.placed]

theorem Available.endsPolled (hn : h.IsNew) (hg : c.goal = .members none) {o : Outcome}
    (ha : (h.after past).Available t c o) : h.EndsPolled past t o := by
  have htok : (h.after past).tokenCancelled (watched c.goal) = false := by
    rw [hg]
    rfl
  cases ha with
  | @failed f g hs hst =>
    refine endsPolled_of_start (g := g) ht hs ?_
    simp [advanceStart, htok, hst]
  | @oversized g hs hst =>
    refine endsPolled_of_start (g := g) ht hs ?_
    simp [advanceStart, htok, hst]
  | @unsent id cause g hs hst =>
    refine endsPolled_of_start (g := g.dropStream id) ht hs ?_
    simp [advanceStart, htok, hst, afterSend]
  | @refused id cause hs =>
    refine endsPolled_of_done (g := (h.after past).dropStream id) ht ?_
    rw [advanceTask_call, advanceCall_of_sent hs]
    rfl
  | cancelled hgath hc =>
    cases hgath with
    | sent hgoal hs =>
      refine endsPolled_of_sent ht hg hs fun past' ht' hbook => ?_
      exact endsPolled_of_cancelled ht' rfl (by rw [isCancelled, hbook]; exact hc)
    | reading hs => exact endsPolled_of_cancelled ht hs hc
  | members hgath hq hc =>
    cases hgath with
    | sent hgoal hs =>
      refine endsPolled_of_sent ht hg hs fun past' ht' hbook => ?_
      exact endsPolled_of_complete ht' hn hg rfl (hbook ▸ hq) hc
    | reading hs => exact endsPolled_of_complete ht hn hg hs hq hc

end

end Hub

/-- **The time of a plain call is bounded, wherever it waits.** The time is counted from the first
segment of the call. If the call has run out of time, then that time is over and the failure says how
long it was; the call has made a request, which is not registered; in the end, however the tasks run
on, no chunk stands at that request, and every handling of a chunk for it is done; and a chunk with
its nonce finds a later request of that nonce, if any. When the time is over and no task can move, the
call has ended. And if what it waits for is there when it is run, the call ends with that, even then.
-/
theorem timeout_bounds_call {h : Hub} (hn : h.IsNew) {after : Duration}
    (hT : h.limits.timeout = some after) (past : List Action) {t : TaskId}
    (hc : .called t (.members none) ∈ h.journal past) :
    (∀ d, (t, .failed (.timedOut d)) ∈ (h.after past).finished →
      d = after ∧ (h.after past).task? t = none ∧
      (∃ start, h.firstRun t past = some start ∧
        start.nanos + after.nanos ≤ (h.after past).now.nanos) ∧
      ∃ id, .made t id ∈ h.journal past ∧ (∀ n, (h.after past).book.registry.get? n ≠ some id) ∧
        ((h.after past).Settles fun g => (∀ t' d, g.delivery? t' = some d → d.request ≠ id) ∧
          ∀ t' d, (h.after past).task? t' = some (.delivering d) → d.request = id →
            g.task? t' = none ∧ (t', .handled) ∈ g.finished) ∧
        ∀ c id', c.nonce = some ((h.after past).book.nonceOf id) →
          (h.after past).match? c = some id' →
          id < id' ∧ (h.after past).book.nonceOf id' = (h.after past).book.nonceOf id) ∧
    (∀ start, h.firstRun t past = some start →
      start.nanos + after.nanos ≤ (h.after past).now.nanos → (h.after past).Quiet →
      (h.after past).task? t = none ∧
        ((∃ o, (t, o) ∈ (h.after past).finished) ∨ .dropTask t ∈ past)) ∧
    ∀ c o, (h.after past).task? t = some (.call c) → (h.after past).Available t c o →
      h.EndsPolled past t o := by
  have hreach := Reached.after hn past
  have hlt : t < (h.after past).tasks.size := hreach.called_lt hc
  refine ⟨fun d ho => ?_, fun start hstart hle hq => ?_, fun c o ht ha => ?_⟩
  · obtain ⟨hd, ⟨id, hm⟩, hstart⟩ := Hub.elapsed_of_timedOut hn hc ho
    cases hT.symm.trans hd
    have hnone : (h.after past).task? t = none := (Hub.gone_of_finished hn ho).2
    have hno := hreach.not_registered hc hm hnone
    obtain ⟨r, hr⟩ : ∃ r, (h.after past).book.requests[id]? = some r :=
      ⟨_, Array.getElem?_eq_getElem (hreach.made_lt hm).2⟩
    have hw : ¬r.Waiting := fun hw => hno _ ((hreach.sound.get?_nonce hr).mpr hw)
    exact ⟨rfl, hnone, hstart, id, hm, hno, Hub.handled_at_rest hn hr hw,
      fun c id' hnonce hmatch => Hub.later_of_match hn hm hno hnonce hmatch⟩
  · have hnone := Hub.gone_of_elapsed hn hc hT hstart hle hq
    exact ⟨hnone, Hub.ended_or_dropped hn hlt hnone⟩
  · obtain ⟨c', he, hg⟩ := Hub.call_of_called hn [] hc ht
    cases he
    exact ha.endsPolled ht hn hg

def Hub.hasty : Hub := { Hub.sample .hold with limits := { capacity := 1, timeout := some ⟨5⟩ } }

theorem Hub.hasty_isNew : Hub.hasty.IsNew :=
  ⟨{ capacity := 1, timeout := some ⟨5⟩ }, .nothing, [_], true, _, rfl⟩

/-- The shard does not let the command go in time. -/
def outOfTime : List Action :=
  [.segment 0, .advanceClock ⟨5⟩, .segment 0, .advanceClock ⟨1⟩, .callMembers (.all ⟨1⟩)]

theorem outOfTime_failed :
    Hub.hasty.IsNew ∧ Hub.hasty.limits.timeout = some ⟨5⟩ ∧
      .called 0 (.members none) ∈ Hub.hasty.journal outOfTime ∧
      (0, .failed (.timedOut ⟨5⟩)) ∈ (Hub.hasty.after outOfTime).finished ∧
      (∃ start, Hub.hasty.firstRun 0 outOfTime = some start ∧
        start.nanos + 5 ≤ (Hub.hasty.after outOfTime).now.nanos) ∧
      ∃ id, .made 0 id ∈ Hub.hasty.journal outOfTime ∧
        ∀ n, (Hub.hasty.after outOfTime).book.registry.get? n ≠ some id := by
  have hn := Hub.hasty_isNew
  have hc : .called 0 (.members none) ∈ Hub.hasty.journal outOfTime := List.mem_cons_self
  have ho : (0, .failed (.timedOut ⟨5⟩)) ∈ (Hub.hasty.after outOfTime).finished :=
    Array.mem_push_self
  obtain ⟨-, -, hstart, id, hm, hno, -⟩ := (timeout_bounds_call hn rfl outOfTime hc).1 _ ho
  exact ⟨hn, rfl, hc, ho, hstart, id, hm, hno⟩

end Rollcall
